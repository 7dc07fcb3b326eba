import LinuxHardener.Fleet.BatchVerdicts
import LinuxHardener.State.LatestNamed
import LinuxHardener.State.Rollback

/-
  A rollback of the fleet: on each host its checkpoints are restored one after the other,
  after each the plugins are asked to reload and to say what still diverges, and what came of
  it all is one status and one exit code.

  A restore, a reload and a probe each find the host as the ones before left it, and may
  change it.

  What is proved:
    1. `reconcileLoop_eq` — the rows a rollback gets are those of the plugins' turns.
    2. `rollback_accounted` — every checkpoint counts as restored or as failed; none fails
       exactly if the plugins were there and every file and reload came back; the rows are
       those of every turn, in order, and its counts count them.
    3. `probes_change_nothing` — whatever the probes answer, the other counts, the exit
       code and the host are the same.

  Correspondence (Rust ↔ Lean):
    `ReloadResult`, `DivergenceState`, `RollbackDivergence` ↔ the types of these names
    `RollbackResult::{reloads_ok, divergence_counts}` ↔ `RollbackResult.reloadsOk`, `divergenceCounts`
    `plugins_or_reload_failure`, `plugin_or_reload_failure` ↔ the same in camel case
    `reconcile_plugins_after_rollback`               ↔ `reconcilePluginsAfterRollback`, its loop `reconcileLoop`
    `reload_restored_paths`, `rollback_failure_reason` ↔ the same in camel case
    `classify_rollback_outcome`, `rollback_status_for` ↔ the same in camel case
    `rollback_one`, `rollback_exit_code`             ↔ the same in camel case
-/
namespace LinuxHardener.Fleet

open LineText (Chars)
open Compliance (PluginId PluginMetadata)
open State (Checkpoint FileRestoreResult)

variable {σ : Type}

/-! ## Reloads -/

structure ReloadResult where
  reloadPluginId : Chars
  reloadAction : Chars
  reloadSuccess : Bool
  reloadError : Option Chars
  deriving DecidableEq, Repr

inductive DivergenceState where
  | diverged
  | unverifiable
  deriving DecidableEq, Repr

structure RollbackDivergence where
  divergencePluginId : Chars
  divergenceSubject : Chars
  divergenceState : DivergenceState
  divergenceDetail : Chars
  divergenceExpected : Option Chars
  deriving DecidableEq, Repr

/-- A result the plugins have been asked about. -/
structure RollbackResult extends State.RollbackResult where
  rollbackReloads : List ReloadResult
  rollbackDivergences : List RollbackDivergence

def RollbackResult.reloadsOk (r : RollbackResult) : Bool := r.rollbackReloads.all ReloadResult.reloadSuccess

/-- One row on one of the two counts. -/
def countDivergence (counts : Nat × Nat) (row : RollbackDivergence) : Nat × Nat :=
  match row.divergenceState with
  | .diverged => (counts.1 + 1, counts.2)
  | .unverifiable => (counts.1, counts.2 + 1)

def RollbackResult.divergenceCounts (r : RollbackResult) : Nat × Nat := r.rollbackDivergences.foldl countDivergence (0, 0)

/-- A plugin as far as a rollback asks it. -/
structure ReloadablePlugin (σ : Type) where
  reloadsForPath : Chars → Bool
  reloadAfterRollback : σ → Except Chars (Option Chars) × σ
  divergencesAfterRollback : List Chars → σ → List RollbackDivergence × σ

/-- The listing and each fetch may fail. -/
structure ReloadRegistry (σ : Type) where
  list : Except Chars (List PluginMetadata)
  get : PluginId → Except Chars (Option (ReloadablePlugin σ))

structure RollbackReconciliation where
  reloads : List ReloadResult
  divergences : List RollbackDivergence
  deriving DecidableEq, Repr

def pluginsOrReloadFailure (listed : Except Chars (List PluginMetadata)) : Except ReloadResult (List PluginMetadata) :=
  match listed with
  | .ok metadata => .ok metadata
  | .error e =>
    .error ⟨"plugin-registry".toList, "reload skipped".toList, false,
      some ("plugin registry could not be enumerated: ".toList ++ e)⟩

def pluginOrReloadFailure (fetched : Except Chars (Option (ReloadablePlugin σ))) (id : PluginId) :
    Except ReloadResult (ReloadablePlugin σ) :=
  match fetched with
  | .ok (some plugin) => .ok plugin
  | .ok none =>
    .error ⟨id.value.toList, "reload skipped".toList, false, some "plugin was listed but could not be found".toList⟩
  | .error e => .error ⟨id.value.toList, "reload skipped".toList, false, some e⟩

/-- The row a reload leaves, if any. -/
def reloadRow (id : PluginId) : Except Chars (Option Chars) → List ReloadResult
  | .ok none => []
  | .ok (some action) => [⟨id.value.toList, action, true, none⟩]
  | .error e => [⟨id.value.toList, "reload failed".toList, false, some e⟩]

def reconcileLoop (registry : ReloadRegistry σ) (restored : List Chars) :
    List PluginMetadata → RollbackReconciliation → σ → RollbackReconciliation × σ
  | [], acc, s => (acc, s)
  | m :: metadata, acc, s =>
    match pluginOrReloadFailure (registry.get m.pluginId) m.pluginId with
    | .error failure => reconcileLoop registry restored metadata { acc with reloads := acc.reloads ++ [failure] } s
    | .ok plugin =>
      -- only the reload is gated on the paths; the divergences are always asked for
      let reloaded := if restored.any plugin.reloadsForPath then plugin.reloadAfterRollback s else (.ok none, s)
      let probed := plugin.divergencesAfterRollback restored reloaded.2
      reconcileLoop registry restored metadata
        ⟨acc.reloads ++ reloadRow m.pluginId reloaded.1, acc.divergences ++ probed.1⟩ probed.2

def reconcilePluginsAfterRollback (registry : ReloadRegistry σ) (restored : List Chars) (s : σ) : RollbackReconciliation × σ :=
  match pluginsOrReloadFailure registry.list with
  | .error failure => (⟨[failure], []⟩, s)
  | .ok metadata => reconcileLoop registry restored metadata ⟨[], []⟩ s

/-- The paths that came back. -/
def restoredPaths (result : State.RollbackResult) : List Chars :=
  (result.rollbackFiles.filter FileRestoreResult.restoreSuccess).map fun f => f.restorePath.toList

def reloadRestoredPaths (registry : ReloadRegistry σ) (result : State.RollbackResult) (s : σ) : RollbackResult × σ :=
  if (restoredPaths result).isEmpty then (⟨result, [], []⟩, s)
  else
    let reconciled := reconcilePluginsAfterRollback registry (restoredPaths result) s
    (⟨result, reconciled.1.reloads, reconciled.1.divergences⟩, reconciled.2)

inductive FailureReason where
  | files
  | reload
  deriving DecidableEq, Repr

/-- How a rollback of one checkpoint ends. -/
def rollbackFailureReason (r : RollbackResult) : Option FailureReason :=
  match r.rollbackSuccess, r.reloadsOk with
  | false, _ => some .files
  | true, false => some .reload
  | true, true => none

/-! ## A host -/

inductive RollbackStatus where
  | previewed (checkpoints : Nat)
  | rolledBack (restored failed reloadFailed diverged unverifiable : Nat) (divergences : List RollbackDivergence)
  | nothingToDo
  | failed (error : Chars)
  deriving DecidableEq, Repr

structure RollbackOutcome where
  name : Chars
  target : Chars
  status : RollbackStatus
  deriving DecidableEq, Repr

/-- Restored, failed, failed to reload. -/
def classifyRollbackOutcome (rollbackSuccess reloadsOk : Bool) : Bool × Bool × Bool :=
  match rollbackSuccess, reloadsOk with
  | true, true => (true, false, false)
  | true, false => (false, true, true)
  | false, true => (false, true, false)
  | false, false => (false, true, true)

structure RollbackTally where
  restored : Nat
  failed : Nat
  reloadFailed : Nat
  diverged : Nat
  unverifiable : Nat
  divergences : List RollbackDivergence
  deriving DecidableEq, Repr

def RollbackTally.add (t : RollbackTally) (r : RollbackResult) : RollbackTally :=
  let classified := classifyRollbackOutcome r.rollbackSuccess r.reloadsOk
  ⟨t.restored + classified.1.toNat, t.failed + classified.2.1.toNat, t.reloadFailed + classified.2.2.toNat,
    t.diverged + r.divergenceCounts.1, t.unverifiable + r.divergenceCounts.2, t.divergences ++ r.rollbackDivergences⟩

def rollbackTally (results : List RollbackResult) (connectFailed : Nat) : RollbackTally :=
  results.foldl RollbackTally.add ⟨0, connectFailed, 0, 0, 0, []⟩

def rollbackStatusFor (results : List RollbackResult) (connectFailed : Nat) : RollbackStatus :=
  let t := rollbackTally results connectFailed
  .rolledBack t.restored t.failed t.reloadFailed t.diverged t.unverifiable t.divergences

/-- The selected checkpoints one after the other: the results, and how many restores did not begin. -/
def rollbackEach (rollback : Checkpoint → σ → Except Chars State.RollbackResult × σ) (registry : ReloadRegistry σ) :
    List Checkpoint → List RollbackResult → Nat → σ → (List RollbackResult × Nat) × σ
  | [], results, connectFailed, s => ((results, connectFailed), s)
  | c :: selected, results, connectFailed, s =>
    match rollback c s with
    | (.error _, s') => rollbackEach rollback registry selected results (connectFailed + 1) s'
    | (.ok r, s') =>
      let reloaded := reloadRestoredPaths registry r s'
      rollbackEach rollback registry selected (results ++ [reloaded.1]) connectFailed reloaded.2

/-- `connect` and `selected` are what the connection and the selection came to. -/
def rollbackOne (profile : RemoteHostProfile) (execute : Bool) (connect : Except Chars Unit) (privileged : Bool)
    (selected : Except Chars (List Checkpoint)) (rollback : Checkpoint → σ → Except Chars State.RollbackResult × σ)
    (registry : ReloadRegistry σ) (s : σ) : RollbackOutcome × σ :=
  match connect with
  | .error e => (⟨profile.name, profile.target, .failed e⟩, s)
  | .ok () =>
    if execute && !privileged then
      (⟨profile.name, profile.target,
        .failed ("not privileged on ".toList ++ profile.target ++ " (need uid 0 or passwordless sudo)".toList)⟩, s)
    else
      match selected with
      | .error e => (⟨profile.name, profile.target, .failed e⟩, s)
      | .ok checkpoints =>
        if checkpoints.isEmpty then (⟨profile.name, profile.target, .nothingToDo⟩, s)
        else if !execute then (⟨profile.name, profile.target, .previewed checkpoints.length⟩, s)
        else
          let done := rollbackEach rollback registry checkpoints [] 0 s
          (⟨profile.name, profile.target, rollbackStatusFor done.1.1 done.1.2⟩, done.2)

def rollbackCode : RollbackStatus → Nat
  | .failed _ => 2
  | .rolledBack _ failed _ _ _ _ => if failed > 0 then 1 else 0
  | .previewed _ => 0
  | .nothingToDo => 0

def rollbackExitCode (outcomes : List RollbackOutcome) : Nat := outcomes.foldl (fun code o => max code (rollbackCode o.status)) 0

/-! ## Turns -/

/-- What one plugin's turn came to. -/
inductive Turn where
  | unavailable (failure : ReloadResult)
  | asked (id : PluginId) (reload : Option (Except Chars (Option Chars))) (rows : List RollbackDivergence)

namespace Turn

/-- The plugin was there, and what was asked of it to reload did. -/
def isOk : Turn → Bool
  | unavailable _ => false
  | asked _ none _ => true
  | asked _ (some (.ok _)) _ => true
  | asked _ (some (.error _)) _ => false

def reloads : Turn → List ReloadResult
  | unavailable failure => [failure]
  | asked _ none _ => []
  | asked id (some reload) _ => reloadRow id reload

def rows : Turn → List RollbackDivergence
  | unavailable _ => []
  | asked _ _ rows => rows

end Turn

def turn (registry : ReloadRegistry σ) (restored : List Chars) (m : PluginMetadata) (s : σ) : Turn × σ :=
  match pluginOrReloadFailure (registry.get m.pluginId) m.pluginId with
  | .error failure => (.unavailable failure, s)
  | .ok plugin =>
    if restored.any plugin.reloadsForPath then
      let reloaded := plugin.reloadAfterRollback s
      let probed := plugin.divergencesAfterRollback restored reloaded.2
      (.asked m.pluginId (some reloaded.1) probed.1, probed.2)
    else
      let probed := plugin.divergencesAfterRollback restored s
      (.asked m.pluginId none probed.1, probed.2)

/-- The plugins' turns, each on what the ones before it left. -/
def turns (registry : ReloadRegistry σ) (restored : List Chars) : List PluginMetadata → σ → List Turn × σ
  | [], s => ([], s)
  | m :: metadata, s =>
    let first := turn registry restored m s
    let rest := turns registry restored metadata first.2
    (first.1 :: rest.1, rest.2)

/-- The turns of every plugin the registry lists, or its failure to list them. -/
def allTurns (registry : ReloadRegistry σ) (restored : List Chars) (s : σ) : List Turn × σ :=
  match pluginsOrReloadFailure registry.list with
  | .error failure => ([.unavailable failure], s)
  | .ok metadata => turns registry restored metadata s

theorem reconcileLoop_eq (registry : ReloadRegistry σ) (restored : List Chars) (metadata : List PluginMetadata)
    (acc : RollbackReconciliation) (s : σ) :
    reconcileLoop registry restored metadata acc s =
      (⟨acc.reloads ++ (turns registry restored metadata s).1.flatMap Turn.reloads,
        acc.divergences ++ (turns registry restored metadata s).1.flatMap Turn.rows⟩, (turns registry restored metadata s).2) := by
  induction metadata generalizing acc s with
  | nil => simp [reconcileLoop, turns]
  | cons m metadata ih =>
    rw [reconcileLoop, turns, turn]
    cases pluginOrReloadFailure (registry.get m.pluginId) m.pluginId with
    | error failure =>
      dsimp only
      rw [ih]
      simp [Turn.reloads, Turn.rows]
    | ok plugin =>
      dsimp only
      rw [ih]
      split <;> simp [Turn.reloads, Turn.rows, reloadRow]

theorem reconcilePluginsAfterRollback_eq (registry : ReloadRegistry σ) (restored : List Chars) (s : σ) :
    reconcilePluginsAfterRollback registry restored s =
      (⟨(allTurns registry restored s).1.flatMap Turn.reloads, (allTurns registry restored s).1.flatMap Turn.rows⟩,
        (allTurns registry restored s).2) := by
  rw [reconcilePluginsAfterRollback, allTurns]
  cases pluginsOrReloadFailure registry.list with
  | error failure => simp [Turn.reloads, Turn.rows]
  | ok metadata => exact (reconcileLoop_eq registry restored metadata ⟨[], []⟩ s).trans (by simp)

/-- A turn that is not ok leaves a row that says so, and no other turn does. -/
theorem reloads_ok_iff {registry : ReloadRegistry σ} {restored : List Chars} {m : PluginMetadata} {s : σ} :
    (turn registry restored m s).1.reloads.all ReloadResult.reloadSuccess = (turn registry restored m s).1.isOk := by
  rw [turn]
  cases hget : pluginOrReloadFailure (registry.get m.pluginId) m.pluginId with
  | error failure =>
    have hfailed : failure.reloadSuccess = false := by
      unfold pluginOrReloadFailure at hget
      split at hget <;> cases hget <;> rfl
    simp [Turn.reloads, Turn.isOk, hfailed]
  | ok plugin =>
    dsimp only
    split
    · cases (plugin.reloadAfterRollback s).1 with
      | error e => rfl
      | ok action => cases action <;> rfl
    · rfl

theorem reloads_ok_turns (registry : ReloadRegistry σ) (restored : List Chars) (metadata : List PluginMetadata) (s : σ) :
    ((turns registry restored metadata s).1.flatMap Turn.reloads).all ReloadResult.reloadSuccess =
      (turns registry restored metadata s).1.all Turn.isOk := by
  induction metadata generalizing s with
  | nil => rfl
  | cons m metadata ih => rw [turns, List.flatMap_cons, List.all_append, reloads_ok_iff, ih, List.all_cons]

theorem reloads_ok_allTurns (registry : ReloadRegistry σ) (restored : List Chars) (s : σ) :
    ((allTurns registry restored s).1.flatMap Turn.reloads).all ReloadResult.reloadSuccess =
      (allTurns registry restored s).1.all Turn.isOk := by
  rw [allTurns]
  cases hlist : pluginsOrReloadFailure registry.list with
  | error failure =>
    have hfailed : failure.reloadSuccess = false := by
      unfold pluginsOrReloadFailure at hlist
      split at hlist <;> cases hlist
      rfl
    simp [Turn.reloads, Turn.isOk, hfailed]
  | ok metadata => exact reloads_ok_turns registry restored metadata s

/-! ## Checkpoints -/

/-- What the rollback of one checkpoint came to. -/
inductive CheckpointRun where
  | refused (error : Chars)
  | restored (result : State.RollbackResult) (turns : List Turn)

namespace CheckpointRun

/-- Every file came back and every plugin was there and reloaded what it had to. -/
def isClean : CheckpointRun → Bool
  | refused _ => false
  | restored result turns => result.rollbackSuccess && turns.all Turn.isOk

/-- A plugin was not there, or did not reload. -/
def isStale : CheckpointRun → Bool
  | refused _ => false
  | restored _ turns => !turns.all Turn.isOk

def isRefused : CheckpointRun → Bool
  | refused _ => true
  | restored .. => false

def result? : CheckpointRun → Option RollbackResult
  | refused _ => none
  | restored result turns => some ⟨result, turns.flatMap Turn.reloads, turns.flatMap Turn.rows⟩

def rows : CheckpointRun → List RollbackDivergence
  | refused _ => []
  | restored _ turns => turns.flatMap Turn.rows

end CheckpointRun

/-- No plugin is asked where nothing came back. -/
def turnsAfter (registry : ReloadRegistry σ) (result : State.RollbackResult) (s : σ) : List Turn × σ :=
  if (restoredPaths result).isEmpty then ([], s) else allTurns registry (restoredPaths result) s

def checkpointRun (rollback : Checkpoint → σ → Except Chars State.RollbackResult × σ) (registry : ReloadRegistry σ)
    (c : Checkpoint) (s : σ) : CheckpointRun × σ :=
  match rollback c s with
  | (.error e, s') => (.refused e, s')
  | (.ok r, s') => (.restored r (turnsAfter registry r s').1, (turnsAfter registry r s').2)

/-- The checkpoints' runs, each on what the ones before it left. -/
def checkpointRuns (rollback : Checkpoint → σ → Except Chars State.RollbackResult × σ) (registry : ReloadRegistry σ) :
    List Checkpoint → σ → List CheckpointRun × σ
  | [], s => ([], s)
  | c :: selected, s =>
    let first := checkpointRun rollback registry c s
    let rest := checkpointRuns rollback registry selected first.2
    (first.1 :: rest.1, rest.2)

section

variable (rollback : Checkpoint → σ → Except Chars State.RollbackResult × σ) (registry : ReloadRegistry σ)

theorem reloadRestoredPaths_eq (result : State.RollbackResult) (s : σ) :
    reloadRestoredPaths registry result s =
      (⟨result, (turnsAfter registry result s).1.flatMap Turn.reloads, (turnsAfter registry result s).1.flatMap Turn.rows⟩,
        (turnsAfter registry result s).2) := by
  rw [reloadRestoredPaths, turnsAfter]
  split
  · rfl
  · rw [reconcilePluginsAfterRollback_eq]

theorem reloadsOk_turnsAfter (result : State.RollbackResult) (s : σ) :
    ((turnsAfter registry result s).1.flatMap Turn.reloads).all ReloadResult.reloadSuccess =
      (turnsAfter registry result s).1.all Turn.isOk := by
  rw [turnsAfter]
  split
  · rfl
  · exact reloads_ok_allTurns registry _ s

theorem rollbackEach_eq (selected : List Checkpoint) (results : List RollbackResult) (connectFailed : Nat) (s : σ) :
    rollbackEach rollback registry selected results connectFailed s =
      ((results ++ (checkpointRuns rollback registry selected s).1.filterMap CheckpointRun.result?,
        connectFailed + (checkpointRuns rollback registry selected s).1.countP CheckpointRun.isRefused),
        (checkpointRuns rollback registry selected s).2) := by
  induction selected generalizing results connectFailed s with
  | nil => simp [rollbackEach, checkpointRuns]
  | cons c selected ih =>
    rw [rollbackEach, checkpointRuns, checkpointRun]
    cases hrun : rollback c s with
    | mk outcome s' =>
      cases outcome with
      | error e =>
        dsimp only
        rw [ih, List.filterMap_cons_none rfl, List.countP_cons_of_pos rfl, Nat.add_assoc, Nat.add_comm 1]
      | ok r =>
        dsimp only
        rw [ih, reloadRestoredPaths_eq]
        simp [CheckpointRun.result?, CheckpointRun.isRefused]

theorem length_checkpointRuns (selected : List Checkpoint) (s : σ) :
    (checkpointRuns rollback registry selected s).1.length = selected.length := by
  induction selected generalizing s with
  | nil => rfl
  | cons c selected ih => rw [checkpointRuns, List.length_cons, ih, List.length_cons]

/-- Of a run's result, what the tally reads is what the run was. -/
theorem reloadsOk_of_mem (selected : List Checkpoint) (s : σ) :
    ∀ run ∈ (checkpointRuns rollback registry selected s).1, ∀ r, run.result? = some r →
      (r.rollbackSuccess && r.reloadsOk) = run.isClean ∧ (!r.reloadsOk) = run.isStale := by
  induction selected generalizing s with
  | nil => exact fun _ h => absurd h List.not_mem_nil
  | cons c selected ih =>
    intro run hrun r hr
    rw [checkpointRuns] at hrun
    rcases List.mem_cons.mp hrun with rfl | hrest
    · rw [checkpointRun] at hr ⊢
      cases hdone : rollback c s with
      | mk outcome s' =>
        rw [hdone] at hr
        cases outcome with
        | error e => cases hr
        | ok result =>
          cases hr
          have hok : ((turnsAfter registry result s').1.flatMap Turn.reloads).all ReloadResult.reloadSuccess =
            (turnsAfter registry result s').1.all Turn.isOk := reloadsOk_turnsAfter registry result s'
          simp only [RollbackResult.reloadsOk, hok, CheckpointRun.isClean, CheckpointRun.isStale, and_self]
    · exact ih _ run hrest r hr

end

/-! ## The tally -/

theorem classifyRollbackOutcome_eq (rollbackSuccess reloadsOk : Bool) :
    classifyRollbackOutcome rollbackSuccess reloadsOk =
      (rollbackSuccess && reloadsOk, !(rollbackSuccess && reloadsOk), !reloadsOk) := by
  cases rollbackSuccess <;> cases reloadsOk <;> rfl

def isDiverged (row : RollbackDivergence) : Bool := row.divergenceState = .diverged

theorem foldl_countDivergence (rows : List RollbackDivergence) (counts : Nat × Nat) :
    rows.foldl countDivergence counts =
      (counts.1 + rows.countP isDiverged, counts.2 + rows.countP fun row => !isDiverged row) := by
  induction rows generalizing counts with
  | nil => rfl
  | cons row rows ih =>
    rw [List.foldl_cons, ih]
    cases h : row.divergenceState <;> simp [countDivergence, isDiverged, h] <;> omega

theorem divergenceCounts_eq (r : RollbackResult) :
    r.divergenceCounts =
      (r.rollbackDivergences.countP isDiverged, r.rollbackDivergences.countP fun row => !isDiverged row) := by
  rw [RollbackResult.divergenceCounts, foldl_countDivergence, Nat.zero_add, Nat.zero_add]

/-- What the tally of a host is, read off the runs of its checkpoints. -/
theorem foldl_add_runs (runs : List CheckpointRun)
    (hruns : ∀ run ∈ runs, ∀ r, run.result? = some r →
      (r.rollbackSuccess && r.reloadsOk) = run.isClean ∧ (!r.reloadsOk) = run.isStale) (t : RollbackTally) :
    (runs.filterMap CheckpointRun.result?).foldl RollbackTally.add t =
      ⟨t.restored + runs.countP CheckpointRun.isClean,
        t.failed + runs.countP fun run => !run.isClean && !run.isRefused, t.reloadFailed + runs.countP CheckpointRun.isStale,
        t.diverged + (runs.flatMap CheckpointRun.rows).countP isDiverged,
        t.unverifiable + (runs.flatMap CheckpointRun.rows).countP fun row => !isDiverged row,
        t.divergences ++ runs.flatMap CheckpointRun.rows⟩ := by
  induction runs generalizing t with
  | nil => simp
  | cons run runs ih =>
    have hrest := ih (fun run' h => hruns run' (List.mem_cons_of_mem _ h))
    cases run with
    | refused error =>
      rw [List.filterMap_cons]
      dsimp only [CheckpointRun.result?]
      rw [hrest]
      simp [CheckpointRun.isClean, CheckpointRun.isStale, CheckpointRun.isRefused, CheckpointRun.rows]
    | restored result turns =>
      obtain ⟨hclean, hstale⟩ := hruns _ List.mem_cons_self _ rfl
      rw [List.filterMap_cons]
      dsimp only [CheckpointRun.result?]
      rw [List.foldl_cons, hrest, RollbackTally.add, classifyRollbackOutcome_eq, divergenceCounts_eq, hclean, hstale]
      simp only [List.flatMap_cons, List.countP_append, CheckpointRun.rows, List.append_assoc, RollbackTally.mk.injEq,
        List.countP_cons, CheckpointRun.isRefused, Bool.not_false, Bool.and_true, Nat.add_assoc]
      refine ⟨?_, ?_, ?_, trivial, trivial, trivial⟩
      · cases (CheckpointRun.restored result turns).isClean <;> simp [Nat.add_comm]
      · cases (CheckpointRun.restored result turns).isClean <;> simp [Nat.add_comm]
      · cases (CheckpointRun.restored result turns).isStale <;> simp [Nat.add_comm]

/-- A checkpoint's run is clean, or refused, or neither: it is never both. -/
theorem countP_clean (runs : List CheckpointRun) :
    runs.countP CheckpointRun.isClean +
      (runs.countP CheckpointRun.isRefused + runs.countP fun run => !run.isClean && !run.isRefused) = runs.length := by
  induction runs with
  | nil => rfl
  | cons run runs ih =>
    have hboth : run.isClean = true → run.isRefused = false := by cases run <;> simp [CheckpointRun.isClean, CheckpointRun.isRefused]
    rw [List.countP_cons, List.countP_cons, List.countP_cons, List.length_cons, ← ih]
    cases hclean : run.isClean <;> cases hrefused : run.isRefused <;> simp_all <;> omega

theorem isStale_clean {run : CheckpointRun} (h : run.isStale = true) : (!run.isClean && !run.isRefused) = true := by
  cases run with
  | refused error => cases h
  | restored result turns =>
    have hturns : turns.all Turn.isOk = false := by simpa [CheckpointRun.isStale] using h
    rw [CheckpointRun.isClean, CheckpointRun.isRefused, hturns, Bool.and_false]
    rfl

theorem countP_and_not {α : Type} (p : α → Bool) (l : List α) : l.countP p + (l.countP fun a => !p a) = l.length := by
  have h := l.length_eq_countP_add_countP p
  simpa using h.symm

/-- A host's tally, read off the runs of its checkpoints. -/
theorem rollbackTally_eq (rollback : Checkpoint → σ → Except Chars State.RollbackResult × σ) (registry : ReloadRegistry σ)
    (selected : List Checkpoint) (s : σ) :
    let runs := (checkpointRuns rollback registry selected s).1
    let done := rollbackEach rollback registry selected [] 0 s
    rollbackTally done.1.1 done.1.2 =
      ⟨runs.countP CheckpointRun.isClean,
        runs.countP CheckpointRun.isRefused + runs.countP fun run => !run.isClean && !run.isRefused,
        runs.countP CheckpointRun.isStale, (runs.flatMap CheckpointRun.rows).countP isDiverged,
        (runs.flatMap CheckpointRun.rows).countP fun row => !isDiverged row, runs.flatMap CheckpointRun.rows⟩ := by
  have hruns := reloadsOk_of_mem rollback registry selected s
  dsimp only
  rw [rollbackTally, rollbackEach_eq]
  generalize (checkpointRuns rollback registry selected s).1 = runs at *
  rw [List.nil_append, foldl_add_runs runs hruns]
  simp only [Nat.zero_add, List.nil_append]

/-- Every selected checkpoint counts, once: as restored if its run was clean and as failed
otherwise. The rows are the turns' own and the two counts count them. -/
theorem rollback_accounted (rollback : Checkpoint → σ → Except Chars State.RollbackResult × σ) (registry : ReloadRegistry σ)
    (selected : List Checkpoint) (s : σ) :
    let runs := (checkpointRuns rollback registry selected s).1
    let done := rollbackEach rollback registry selected [] 0 s
    let t := rollbackTally done.1.1 done.1.2
    t.restored = runs.countP CheckpointRun.isClean ∧ t.restored + t.failed = selected.length ∧
      t.reloadFailed = runs.countP CheckpointRun.isStale ∧ t.reloadFailed ≤ t.failed ∧
        t.divergences = runs.flatMap CheckpointRun.rows ∧ t.diverged = t.divergences.countP isDiverged ∧
          t.diverged + t.unverifiable = t.divergences.length ∧
            (rollbackCode (rollbackStatusFor done.1.1 done.1.2) = 0 ↔ ∀ run ∈ runs, run.isClean = true) := by
  have hlength := length_checkpointRuns rollback registry selected s
  have htally := rollbackTally_eq rollback registry selected s
  dsimp only at htally ⊢
  rw [rollbackStatusFor, htally]
  generalize (checkpointRuns rollback registry selected s).1 = runs at *
  have hcounts := countP_clean runs
  have hstale : runs.countP CheckpointRun.isStale ≤ runs.countP fun run => !run.isClean && !run.isRefused :=
    List.countP_mono_left fun run _ h => isStale_clean h
  refine ⟨rfl, ?_, rfl, ?_, rfl, rfl, countP_and_not _ _, ?_⟩
  · dsimp only
    omega
  · dsimp only
    omega
  · have hall : (∀ run ∈ runs, run.isClean = true) ↔ runs.countP CheckpointRun.isClean = runs.length := List.countP_eq_length.symm
    rw [hall, rollbackCode]
    dsimp only
    split <;> simp only [Nat.one_ne_zero, false_iff, true_iff] <;> omega

/-! ## The probes only report -/

/-- The same registry, its plugins' probes answering something else of the same look at the host. -/
def ReloadRegistry.answering (registry : ReloadRegistry σ) (answer : PluginId → List Chars → σ → List RollbackDivergence) :
    ReloadRegistry σ where
  list := registry.list
  get := fun id =>
    match registry.get id with
    | .ok (some plugin) =>
      .ok (some { plugin with divergencesAfterRollback := fun paths s => (answer id paths s, (plugin.divergencesAfterRollback paths s).2) })
    | .ok none => .ok none
    | .error e => .error e

namespace Turn

/-- The turn without its rows. -/
def quiet : Turn → Turn
  | unavailable failure => .unavailable failure
  | asked id reload _ => .asked id reload []

theorem isOk_quiet (t : Turn) : t.quiet.isOk = t.isOk := by
  cases t with
  | unavailable failure => rfl
  | asked id reload rows =>
    cases reload with
    | none => rfl
    | some reload => cases reload <;> rfl

end Turn

theorem all_isOk_quiet {ts ts' : List Turn} (h : ts'.map Turn.quiet = ts.map Turn.quiet) : ts'.all Turn.isOk = ts.all Turn.isOk := by
  have hquiet : ∀ l : List Turn, (l.map Turn.quiet).all Turn.isOk = l.all Turn.isOk := by
    intro l
    rw [List.all_map]
    exact congrArg l.all (funext Turn.isOk_quiet)
  rw [← hquiet ts', h, hquiet]

section

variable (registry : ReloadRegistry σ) (answer : PluginId → List Chars → σ → List RollbackDivergence)

theorem turn_answering (restored : List Chars) (m : PluginMetadata) (s : σ) :
    (turn (registry.answering answer) restored m s).1.quiet = (turn registry restored m s).1.quiet ∧
      (turn (registry.answering answer) restored m s).2 = (turn registry restored m s).2 := by
  cases hget : registry.get m.pluginId with
  | error e => simp [turn, ReloadRegistry.answering, hget, pluginOrReloadFailure]
  | ok found =>
    cases found with
    | none => simp [turn, ReloadRegistry.answering, hget, pluginOrReloadFailure]
    | some plugin =>
      by_cases hpath : restored.any plugin.reloadsForPath = true
      · simp [turn, ReloadRegistry.answering, hget, pluginOrReloadFailure, hpath, Turn.quiet]
      · simp [turn, ReloadRegistry.answering, hget, pluginOrReloadFailure, hpath, Turn.quiet]

theorem turns_answering (restored : List Chars) (metadata : List PluginMetadata) (s : σ) :
    (turns (registry.answering answer) restored metadata s).1.map Turn.quiet = (turns registry restored metadata s).1.map Turn.quiet ∧
      (turns (registry.answering answer) restored metadata s).2 = (turns registry restored metadata s).2 := by
  induction metadata generalizing s with
  | nil => exact ⟨rfl, rfl⟩
  | cons m metadata ih =>
    obtain ⟨hquiet, hstate⟩ := turn_answering registry answer restored m s
    obtain ⟨hrest, hend⟩ := ih (turn registry restored m s).2
    simp only [turns, hstate, List.map_cons, hquiet, hrest, hend, and_self]

theorem turnsAfter_answering (result : State.RollbackResult) (s : σ) :
    (turnsAfter (registry.answering answer) result s).1.map Turn.quiet = (turnsAfter registry result s).1.map Turn.quiet ∧
      (turnsAfter (registry.answering answer) result s).2 = (turnsAfter registry result s).2 := by
  rw [turnsAfter, turnsAfter]
  split
  · exact ⟨rfl, rfl⟩
  · rw [allTurns, allTurns, show (registry.answering answer).list = registry.list from rfl]
    cases pluginsOrReloadFailure registry.list with
    | error failure => exact ⟨rfl, rfl⟩
    | ok metadata => exact turns_answering registry answer _ metadata s

variable (rollback : Checkpoint → σ → Except Chars State.RollbackResult × σ)

/-- The verdicts on each checkpoint's run are the same, and so is the host after it. -/
theorem checkpointRuns_answering (selected : List Checkpoint) (s : σ) :
    let runs := checkpointRuns rollback registry selected s
    let runs' := checkpointRuns rollback (registry.answering answer) selected s
    runs'.1.map CheckpointRun.isClean = runs.1.map CheckpointRun.isClean ∧
      runs'.1.map CheckpointRun.isStale = runs.1.map CheckpointRun.isStale ∧ runs'.2 = runs.2 := by
  induction selected generalizing s with
  | nil => exact ⟨rfl, rfl, rfl⟩
  | cons c selected ih =>
    have hfirst : (checkpointRun rollback (registry.answering answer) c s).1.isClean = (checkpointRun rollback registry c s).1.isClean ∧
        (checkpointRun rollback (registry.answering answer) c s).1.isStale = (checkpointRun rollback registry c s).1.isStale ∧
          (checkpointRun rollback (registry.answering answer) c s).2 = (checkpointRun rollback registry c s).2 := by
      rw [checkpointRun, checkpointRun]
      cases rollback c s with
      | mk outcome s' =>
        cases outcome with
        | error e => exact ⟨rfl, rfl, rfl⟩
        | ok r =>
          obtain ⟨hquiet, hstate⟩ := turnsAfter_answering registry answer r s'
          have hok := all_isOk_quiet hquiet
          simp only [CheckpointRun.isClean, CheckpointRun.isStale, hok, hstate, and_self]
    obtain ⟨hclean, hstale, hstate⟩ := hfirst
    obtain ⟨hcleans, hstales, hend⟩ := ih (checkpointRun rollback registry c s).2
    dsimp only [checkpointRuns]
    rw [hstate, List.map_cons, List.map_cons, List.map_cons, List.map_cons, hclean, hstale, hcleans, hstales, hend]
    exact ⟨rfl, rfl, rfl⟩

end

/-- The status without what the probes said. -/
def RollbackStatus.withoutRows : RollbackStatus → RollbackStatus
  | .rolledBack restored lost reloadFailed _ _ _ => .rolledBack restored lost reloadFailed 0 0 []
  | status => status

theorem rollbackCode_withoutRows (status : RollbackStatus) : rollbackCode status.withoutRows = rollbackCode status := by
  cases status <;> rfl

/-- Whatever the probes answer, the host is left the same and its status differs in their rows
only, so no exit code is another. -/
theorem probes_change_nothing (registry : ReloadRegistry σ) (answer : PluginId → List Chars → σ → List RollbackDivergence)
    (rollback : Checkpoint → σ → Except Chars State.RollbackResult × σ) (profile : RemoteHostProfile) (execute : Bool)
    (connect : Except Chars Unit) (privileged : Bool) (selected : Except Chars (List Checkpoint)) (s : σ) :
    let done := rollbackOne profile execute connect privileged selected rollback registry s
    let done' := rollbackOne profile execute connect privileged selected rollback (registry.answering answer) s
    done'.2 = done.2 ∧ done'.1.status.withoutRows = done.1.status.withoutRows ∧
      ∀ before after, rollbackExitCode (before ++ done'.1 :: after) = rollbackExitCode (before ++ done.1 :: after) := by
  have hhost : ∀ checkpoints : List Checkpoint,
      let done := rollbackEach rollback registry checkpoints [] 0 s
      let done' := rollbackEach rollback (registry.answering answer) checkpoints [] 0 s
      done'.2 = done.2 ∧
        (rollbackStatusFor done'.1.1 done'.1.2).withoutRows = (rollbackStatusFor done.1.1 done.1.2).withoutRows := by
    intro checkpoints
    obtain ⟨hcleans, hstales, hend⟩ := checkpointRuns_answering registry answer rollback checkpoints s
    have htally := rollbackTally_eq rollback registry checkpoints s
    have htally' := rollbackTally_eq rollback (registry.answering answer) checkpoints s
    have hlength := length_checkpointRuns rollback registry checkpoints s
    have hlength' := length_checkpointRuns rollback (registry.answering answer) checkpoints s
    have hcount : ∀ (p : CheckpointRun → Bool) (l l' : List CheckpointRun), l'.map p = l.map p → l'.countP p = l.countP p := by
      intro p l l' h
      have hmap : ∀ l : List CheckpointRun, (l.map p).countP id = l.countP p := fun l => List.countP_map
      rw [← hmap, h, hmap]
    have hr := hcount _ _ _ hcleans
    have hs := hcount _ _ _ hstales
    refine ⟨?_, ?_⟩
    · rw [rollbackEach_eq, rollbackEach_eq]
      exact hend
    · have hsum := countP_clean (checkpointRuns rollback registry checkpoints s).1
      have hsum' := countP_clean (checkpointRuns rollback (registry.answering answer) checkpoints s).1
      rw [hlength] at hsum
      rw [hlength', hr, ← hsum, Nat.add_left_cancel_iff] at hsum'
      dsimp only at htally htally'
      rw [rollbackStatusFor, rollbackStatusFor, htally, htally', RollbackStatus.withoutRows, RollbackStatus.withoutRows]
      dsimp only
      rw [hr, hs, hsum']
  have hboth : (rollbackOne profile execute connect privileged selected rollback (registry.answering answer) s).2 =
        (rollbackOne profile execute connect privileged selected rollback registry s).2 ∧
      (rollbackOne profile execute connect privileged selected rollback (registry.answering answer) s).1.status.withoutRows =
        (rollbackOne profile execute connect privileged selected rollback registry s).1.status.withoutRows := by
    unfold rollbackOne
    cases connect with
    | error e => exact ⟨rfl, rfl⟩
    | ok _ =>
      dsimp only
      split
      · exact ⟨rfl, rfl⟩
      · cases selected with
        | error e => exact ⟨rfl, rfl⟩
        | ok checkpoints =>
          dsimp only
          split
          · exact ⟨rfl, rfl⟩
          · split
            · exact ⟨rfl, rfl⟩
            · exact hhost checkpoints
  obtain ⟨hstate, hstatus⟩ := hboth
  refine ⟨hstate, hstatus, fun before after => ?_⟩
  have hcode := congrArg rollbackCode hstatus
  rw [rollbackCode_withoutRows, rollbackCode_withoutRows] at hcode
  rw [rollbackExitCode, rollbackExitCode, List.foldl_append, List.foldl_append, List.foldl_cons, List.foldl_cons, hcode]

end LinuxHardener.Fleet
