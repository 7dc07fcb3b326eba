import LinuxHardener.Lib.MaxByKey
import LinuxHardener.Lib.OrderBy
import LinuxHardener.State.CheckpointDb

/-
  The newest checkpoint under each of a host's names (`manager.rs`).

  A timestamp counts seconds, so a checkpoint and the one a rollback takes behind it may
  share theirs.

  Correspondence (Rust ↔ Lean):
    `select_latest_named`    ↔ `selectLatestNamed`
    `list_checkpoints`       ↔ a `Descending` order of the table
    `latest_named_for_host`  ↔ `selectLatestNamed` of such an order

  What is proved:
    1. `selectLatestNamed_latest`, `selectLatestNamed_complete` — every name that has a
       checkpoint gets one with no strictly later one.
    2. `selectLatestNamed_perm_iff` — which one it gets does not depend on the order of the
       list exactly where no name has two that share the latest time.
    3. `latestNamedForHost_eq` — there every order the engine may list the table in answers alike.
-/
namespace LinuxHardener.State

variable {checkpoints checkpoints' : List Checkpoint} {hostKeys names : List String} {name : String} {c d : Checkpoint}

/-- The timestamp is a signed column. -/
def Checkpoint.seconds (c : Checkpoint) : Int := c.checkpointTimestamp.toInt

/-- The checkpoints of a host, under any of its keys, that carry the name. -/
def namedOnHost (hostKeys : List String) (name : String) (checkpoints : List Checkpoint) : List Checkpoint :=
  checkpoints.filter fun c => hostKeys.contains c.hostKey && c.checkpointName == name

/-- Selects, per requested name, the newest checkpoint matching that name on the given host. -/
def selectLatestNamed (checkpoints : List Checkpoint) (hostKeys names : List String) : List Checkpoint :=
  names.filterMap fun name => maxByKey Checkpoint.seconds (namedOnHost hostKeys name checkpoints)

/-- A match with no strictly later match. -/
def IsLatestNamed (checkpoints : List Checkpoint) (hostKeys : List String) (name : String) (c : Checkpoint) : Prop :=
  IsGreatest Checkpoint.seconds (namedOnHost hostKeys name checkpoints) c

theorem mem_namedOnHost : c ∈ namedOnHost hostKeys name checkpoints ↔
    c ∈ checkpoints ∧ c.hostKey ∈ hostKeys ∧ c.checkpointName = name := by
  simp [namedOnHost]

theorem namedOnHost_perm (hp : checkpoints'.Perm checkpoints) :
    (namedOnHost hostKeys name checkpoints').Perm (namedOnHost hostKeys name checkpoints) := hp.filter _

/-! ## What is selected -/

theorem selectLatestNamed_latest (h : c ∈ selectLatestNamed checkpoints hostKeys names) :
    c.checkpointName ∈ names ∧ IsLatestNamed checkpoints hostKeys c.checkpointName c := by
  obtain ⟨name, hname, hc⟩ := List.mem_filterMap.mp h
  have hlatest := isGreatest_of_maxByKey hc
  have hnamed := (mem_namedOnHost.mp hlatest.1).2.2
  exact ⟨hnamed ▸ hname, hnamed.symm ▸ hlatest⟩

theorem selectLatestNamed_complete (hname : name ∈ names) (hd : d ∈ namedOnHost hostKeys name checkpoints) :
    ∃ c ∈ selectLatestNamed checkpoints hostKeys names, IsLatestNamed checkpoints hostKeys name c := by
  obtain ⟨c, hc, hlatest⟩ := exists_maxByKey Checkpoint.seconds hd
  exact ⟨c, List.mem_filterMap.mpr ⟨name, hname, hc⟩, hlatest⟩

/-! ## The order of the list -/

/-- Two selections that leave out the same names differ where they differ for a name. -/
theorem filterMap_eq_iff {α β : Type} {f g : α → Option β} {l : List α} (h : ∀ a ∈ l, (f a).isSome = (g a).isSome) :
    l.filterMap f = l.filterMap g ↔ ∀ a ∈ l, f a = g a := by
  constructor
  · intro he
    induction l with
    | nil => simp
    | cons a l ih =>
      have hhead := h a List.mem_cons_self
      have hrest : ∀ a ∈ l, (f a).isSome = (g a).isSome := fun b hb => h b (List.mem_cons_of_mem a hb)
      rw [List.filterMap_cons, List.filterMap_cons] at he
      cases hf : f a with
      | none =>
        have hg : g a = none := Option.isSome_eq_false_iff.mp (by rw [← hhead, hf]; rfl) |> Option.isNone_iff_eq_none.mp
        rw [hf, hg] at he
        exact List.forall_mem_cons.mpr ⟨hf.trans hg.symm, ih hrest he⟩
      | some b =>
        obtain ⟨b', hg⟩ : ∃ b', g a = some b' := Option.isSome_iff_exists.mp (by rw [← hhead, hf]; rfl)
        rw [hf, hg] at he
        obtain ⟨hb, he⟩ := List.cons.inj he
        exact List.forall_mem_cons.mpr ⟨by rw [hf, hg, hb], ih hrest he⟩
  · exact fun he => List.filterMap_congr he

/-- Selecting from another order of the list gives the same for every name. -/
def OrderIndependent (checkpoints : List Checkpoint) (hostKeys names : List String) : Prop :=
  ∀ checkpoints', checkpoints'.Perm checkpoints →
    selectLatestNamed checkpoints' hostKeys names = selectLatestNamed checkpoints hostKeys names

/-- No name has two checkpoints on the host that share its latest time. -/
def OneLatestEach (checkpoints : List Checkpoint) (hostKeys names : List String) : Prop :=
  ∀ name ∈ names, ∀ c d, IsLatestNamed checkpoints hostKeys name c → IsLatestNamed checkpoints hostKeys name d → c = d

theorem selectLatestNamed_perm (hone : OneLatestEach checkpoints hostKeys names) : OrderIndependent checkpoints hostKeys names :=
  fun _ hp => List.filterMap_congr fun name hname => maxByKey_perm (hone name hname) (namedOnHost_perm hp)

/-- A match that shares the latest time is selected once it stands last. -/
theorem IsLatestNamed.exists_perm (hc : IsLatestNamed checkpoints hostKeys name c) : ∃ checkpoints',
    checkpoints'.Perm checkpoints ∧
      maxByKey Checkpoint.seconds (namedOnHost hostKeys name checkpoints') = some c := by
  have hmem := mem_namedOnHost.mp hc.1
  refine ⟨checkpoints.erase c ++ [c],
    List.perm_append_comm.trans (List.perm_cons_erase hmem.1).symm, ?_⟩
  have hlast : namedOnHost hostKeys name [c] = [c] := List.filter_eq_self.mpr (by simp [hmem.2.1, hmem.2.2])
  have hsplit : namedOnHost hostKeys name (checkpoints.erase c ++ [c]) =
      namedOnHost hostKeys name (checkpoints.erase c) ++ [c] :=
    (List.filter_append ..).trans (congrArg (namedOnHost hostKeys name (checkpoints.erase c) ++ ·) hlast)
  rw [hsplit]
  refine maxByKey_concat fun b hb => hc.2 b ?_
  exact List.Sublist.subset (List.Sublist.filter _ List.erase_sublist) hb

theorem oneLatestEach_of_orderIndependent (h : OrderIndependent checkpoints hostKeys names) :
    OneLatestEach checkpoints hostKeys names := by
  intro name hname c d hc hd
  have hsame : ∀ checkpoints', checkpoints'.Perm checkpoints →
      maxByKey Checkpoint.seconds (namedOnHost hostKeys name checkpoints') =
        maxByKey Checkpoint.seconds (namedOnHost hostKeys name checkpoints) := fun checkpoints' hp =>
    (filterMap_eq_iff fun n _ => isSome_maxByKey_perm (namedOnHost_perm hp)).mp (h checkpoints' hp) name hname
  obtain ⟨lc, hpc, hlc⟩ := hc.exists_perm
  obtain ⟨ld, hpd, hld⟩ := hd.exists_perm
  rw [hsame lc hpc] at hlc
  rw [hsame ld hpd, hlc] at hld
  exact Option.some.inj hld

/-- What is selected is never older than another match, and it is the same in every order
of the list exactly where no name has two checkpoints that share its latest time. -/
theorem selectLatestNamed_perm_iff (checkpoints : List Checkpoint) (hostKeys names : List String) :
    (OrderIndependent checkpoints hostKeys names ∧
      ∀ c ∈ selectLatestNamed checkpoints hostKeys names, IsLatestNamed checkpoints hostKeys c.checkpointName c) ↔
    OneLatestEach checkpoints hostKeys names := by
  constructor
  · exact fun h => oneLatestEach_of_orderIndependent h.1
  · exact fun h => ⟨selectLatestNamed_perm h, fun c hc => (selectLatestNamed_latest hc).2⟩

/-- A checkpoint of the host `h`, under the name that `hardener apply` gives those of the SSH plugin. -/
def preApply (id : String) (timestamp : BitVec 64) : Checkpoint where
  checkpointId := id
  checkpointName := "ssh-hardening-pre-apply"
  checkpointTimestamp := timestamp
  checkpointUsername := "u"
  checkpointSignature := []
  hostKey := "ssh://root@h"

/-- Two of one second: each is selected where it stands last. -/
theorem selectLatestNamed_tie : ¬ OrderIndependent [preApply "a" 100, preApply "b" 100] ["ssh://root@h"]
    ["ssh-hardening-pre-apply"] := by
  intro h
  have hswapped := h [preApply "b" 100, preApply "a" 100] (List.Perm.swap _ _ _)
  revert hswapped
  decide

/-! ## The table -/

/-- However the engine orders the rows of one second, the answer is the same. -/
theorem latestNamedForHost_eq {db : CheckpointDb.Db} {rows rows' : List Checkpoint}
    (h : Descending Checkpoint.seconds db.checkpoints rows) (h' : Descending Checkpoint.seconds db.checkpoints rows')
    (hone : OneLatestEach db.checkpoints hostKeys names) :
    selectLatestNamed rows hostKeys names = selectLatestNamed rows' hostKeys names :=
  (selectLatestNamed_perm hone rows h.perm).trans (selectLatestNamed_perm hone rows' h'.perm).symm

end LinuxHardener.State
