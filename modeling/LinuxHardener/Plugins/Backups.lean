import LinuxHardener.Plugins.Session
import LinuxHardener.Ssh.Include

/-
  Two things plugins do around their files: make a directory that may be missing, and keep
  the newest backups of a file only.

  Correspondence (Rust ↔ Lean):
    `ensure_directory`, `BACKUPS_KEPT`, `prune_timestamped_backups` ↔ the same in camel case
-/
namespace LinuxHardener.Plugins

open LineText Dialogue

/-- The reason why the directory could not be made, if it could not. -/
def ensureDirectory (dir : Chars) : Session (Option Chars) := do
  match ← pathExists dir with
  | .ok true => return none
  | _ =>
    match ← execute "mkdir" ["-p", dir] with
    | .ok output =>
      if output.success then return none
      else
        return some ("Failed to create ".toList ++ dir ++ ": mkdir exited ".toList ++ (toString output.exitCode).toList ++
          " (".toList ++ LineText.trim output.stderr ++ [')'])
    | .error e => return some ("Failed to create ".toList ++ dir ++ ": ".toList ++ e)

theorem asks_ensureDirectory {P : Query → Prop} {dir : Chars} (hexists : P (.pathExists dir))
    (hmkdir : P (.execute "mkdir" ["-p", dir])) : Asks P (ensureDirectory dir) := by
  refine Asks.bind (asks_ask hexists) fun r => ?_
  split
  · trivial
  · refine Asks.bind (asks_ask hmkdir) fun r => ?_
    cases r with
    | error e => trivial
    | ok output => dsimp only; split <;> trivial

def backupsKept : Nat := 3

/-- The backups to go, oldest first: their names sort by age. -/
def staleBackups (stem : Chars) (keep : Nat) (entries : List Chars) : List Chars :=
  let backups := entries.filter fun path => stem.isPrefixOf path
  (backups.insertionSort (· ≤ ·)).take (backups.length - keep)

/-- Removes the backups beyond the newest. Whatever goes wrong is only logged. -/
def pruneTimestampedBackups (stem : Chars) (keep : Nat) : Session Unit := do
  match Ssh.parent stem with
  | none => return ()
  | some directory =>
    match ← readDir directory with
    | .error _ => return ()
    | .ok entries =>
      match staleBackups stem keep entries with
      | [] => return ()
      | stale =>
        let _ ← execute "rm" ("-f".toList :: "--".toList :: stale)
        return ()

/-- Once the directory is listed, one command removes what is stale, if anything is. -/
theorem pruneTimestampedBackups_listed {stem directory : Chars} (h : Ssh.parent stem = some directory) (keep : Nat)
    (entries : List Chars) :
    ∃ next, pruneTimestampedBackups stem keep = .ask (.readDir directory) next ∧
      (staleBackups stem keep entries = [] → next (.ok entries) = return ()) ∧
        ∀ path stale, staleBackups stem keep entries = path :: stale →
          next (.ok entries) = do
            let _ ← execute "rm" ("-f".toList :: "--".toList :: path :: stale)
            return () := by
  unfold pruneTimestampedBackups
  rw [h]
  let next (r : Except Chars (List Chars)) : Session Unit :=
    match r with
    | .error _ => return ()
    | .ok entries =>
      match staleBackups stem keep entries with
      | [] => return ()
      | stale => do
        let _ ← execute "rm" ("-f".toList :: "--".toList :: stale)
        return ()
  refine ⟨next, rfl, fun hstale => ?_, fun path stale hstale => ?_⟩
  · simp only [next, hstale]
  · simp only [next, hstale]

end LinuxHardener.Plugins
