import Mathlib.Data.List.Basic

/-
  Scripts of commands with hooks in them: places where more is read in.

  A script runs command by command and fails with the first command that fails. What a hook does is
  a parameter.

  What is proved:
    1. `run_append`, `run_congr` — a script runs part by part, and as its commands do.
    2. `run_placed` — where every command behind the first hook leaves alone what the hook puts into
       the state, a script runs with the hook as it does without, that put in.
-/
namespace LinuxHardener.HookedScript

inductive Piece (C : Type) where
  | command (c : C)
  | hook

variable {C S : Type}

def step (exec : C → S → Option S) (hooked : S → Option S) (s : S) : Piece C → Option S
  | .command c => exec c s
  | .hook => hooked s

def run (exec : C → S → Option S) (hooked : S → Option S) (pieces : List (Piece C)) (s : S) : Option S :=
  pieces.foldlM (step exec hooked) s

variable {exec exec' : C → S → Option S} {hooked hooked' : S → Option S} {put : S → S} {pieces : List (Piece C)} {s : S}

@[simp] theorem run_nil : run exec hooked [] s = some s := rfl

theorem run_cons (piece : Piece C) :
    run exec hooked (piece :: pieces) s = (step exec hooked s piece).bind fun s => run exec hooked pieces s := List.foldlM_cons

theorem run_append (before after : List (Piece C)) :
    run exec hooked (before ++ after) s = (run exec hooked before s).bind fun s => run exec hooked after s := List.foldlM_append

/-- A hook that does nothing at the end. -/
theorem run_concat_hook : run exec some (pieces ++ [.hook]) s = run exec some pieces s := by
  rw [run_append]
  cases run exec some pieces s <;> rfl

theorem run_congr (h : ∀ c, .command c ∈ pieces → exec c = exec' c) : run exec hooked pieces s = run exec' hooked pieces s := by
  induction pieces generalizing s with
  | nil => rfl
  | cons piece pieces ih =>
    have hstep : step exec hooked s piece = step exec' hooked s piece := by
      cases piece with
      | command c => exact congrFun (h c List.mem_cons_self) s
      | hook => rfl
    rw [run_cons, run_cons, hstep]
    exact congrArg _ (funext fun s => ih fun c hc => h c (List.mem_cons_of_mem _ hc))

/-- No hook is met in commands alone. -/
theorem run_commands (commands : List C) (s : S) :
    run exec hooked (commands.map .command) s = run exec hooked' (commands.map .command) s := by
  induction commands generalizing s with
  | nil => rfl
  | cons c commands ih =>
    rw [List.map_cons, run_cons, run_cons]
    exact congrArg _ (funext ih)

/-! ## A hook that puts something into the state -/

/-- A command that neither sees nor changes what is put there. -/
def Spares (exec : C → S → Option S) (put : S → S) (c : C) : Prop := ∀ s, exec c (put s) = (exec c s).map put

/-- Behind the first hook stand hooks and commands that spare what it puts. -/
def Placed (exec : C → S → Option S) (put : S → S) (pieces : List (Piece C)) : Prop :=
  ∃ (before : List C) (after : List (Piece C)), pieces = before.map .command ++ .hook :: after ∧
    ∀ c, .command c ∈ after → Spares exec put c

theorem run_put {after : List (Piece C)} (hput : ∀ s, put (put s) = put s) (hspares : ∀ c, .command c ∈ after → Spares exec put c)
    (s : S) : run exec (fun s => some (put s)) after (put s) = (run exec some after s).map put := by
  induction after generalizing s with
  | nil => rfl
  | cons piece after ih =>
    have hrest : ∀ c, .command c ∈ after → Spares exec put c := fun c hc => hspares c (List.mem_cons_of_mem _ hc)
    rw [run_cons, run_cons]
    cases piece with
    | hook =>
      change run exec _ after (put (put s)) = (run exec some after s).map put
      rw [hput, ih hrest]
    | command c =>
      have hc : exec c (put s) = (exec c s).map put := hspares c List.mem_cons_self s
      change (exec c (put s)).bind _ = ((exec c s).bind _).map put
      rw [hc]
      cases exec c s with
      | none => rfl
      | some s' => exact ih hrest s'

theorem run_placed (hput : ∀ s, put (put s) = put s) (hplaced : Placed exec put pieces) (s : S) :
    run exec (fun s => some (put s)) pieces s = (run exec some pieces s).map put := by
  obtain ⟨before, after, rfl, hspares⟩ := hplaced
  rw [run_append, run_append, run_commands before s]
  cases run exec some (before.map .command) s with
  | none => rfl
  | some s' => exact run_put hput hspares s'

end LinuxHardener.HookedScript
